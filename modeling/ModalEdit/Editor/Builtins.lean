import ModalEdit.Editor.Keys
import ModalEdit.Editor.Lifecycle
import ModalEdit.Editor.Routing

/-!
# The built-in commands

What each built-in command does with its parameters. Commands that run other
commands do so through the given runner.
-/

namespace ModalEdit.Scene

/-- A positional, which the description of the command promises. -/
def positional (p : Parameters) (index : Nat) : Act Scene String :=
  match p.positional? index with
  | some text => return text
  | none => throw (.invalidArgument s!"missing parameter {index + 1}")

/-- The scope that a positional names. -/
def scopeAt (p : Parameters) (index : Nat) : Act Scene Scope := do
  Act.ofRegistry (Scope.parse (← positional p index))

/-- The scope of the switch `-scope`; the window if it is not given. -/
def scopeSwitch (p : Parameters) : Act Scene Scope :=
  match p.switchValue? "scope" with
  | some text => Act.ofRegistry (Scope.parse text)
  | none => return .window

/-- The keys of a sequence. -/
def readKeys (text : String) : Act Scene (List Key) :=
  match Key.readSequence text with
  | .ok keys => return keys
  | .error e => throw (.ofKeyError e)

/-- The switches that say where to run. -/
def contextFlags (p : Parameters) : Act Scene ContextFlags :=
  match ContextFlags.ofParameters p with
  | .ok flags => return flags
  | .error e => throw (.ofParamError e)

/-! ## Scripting -/

/-- All positionals as one text. -/
def joined (p : Parameters) : String := " ".intercalate p.positionals

/-- Shows a text. -/
def echo (p : Parameters) : Act Scene Unit :=
  match p.switchValue? "color" with
  | some face => modifyEditor (·.printWith face (joined p))
  | none => print (joined p)

/-- Runs command lines where the switches say. -/
def eval (run : Runner) (env : Environment) (p : Parameters) : Act Scene Unit := do
  route (← contextFlags p) (run env (joined p))

/-- Replays keys where the switches say. -/
def exec (run : Runner) (p : Parameters) : Act Scene Unit := do
  let flags ← contextFlags p
  let keys ← p.positionals.mapM readKeys
  route flags (replayKeys run keys.flatten)

/-- The command line to run if the first one of `try` fails. -/
def catchLine? (p : Parameters) : Except CommandError (Option String) :=
  match p.positionals with
  | [_] => .ok none
  | [_, keyword, line] =>
    if keyword = "catch" then .ok (some line)
    else .error (.invalidArgument s!"expected 'catch', got '{keyword}'")
  | other => .error (.wrongArgumentCount ⟨1, some 3⟩ other.length)

/-- Runs a command line, and another one if it fails. -/
def tryLine (run : Runner) (env : Environment) (p : Parameters) : Act Scene Unit := do
  let line ← positional p 0
  let other ← Act.ofExcept (catchLine? p)
  match ← (run env line).attempt, other with
  | .ok _, _ => return
  | .error _, some line => run env line
  | .error _, none => return

/-- Sets a register. -/
def reg (p : Parameters) : Act Scene Unit := do
  let name ← Act.ofExcept (Registers.ofName (← positional p 0))
  setRegister name (p.positionals.drop 1)

/-- Renames the current client. -/
def nameclient (p : Parameters) : Act Scene Unit := do
  let name ← positional p 0
  let s ← get
  let clients ← Act.ofExcept (s.editor.clients.rename s.context.name name)
  let happening :=
    Happening.renamed s.context.window.isSome (s.editor.clients.isOut s.context.name)
  set { s with
    editor := { s.editor with clients }.jot happening
    context := { s.context with name } }

/-- Renames the current document. -/
def namebuf (p : Parameters) : Act Scene Unit := do
  let name ← positional p 0
  let s ← get
  let editor ← Act.ofExcept (s.editor.renameDocument s.document.name name)
  set { s with editor }

/-- The text of a file. -/
def readFile (path : String) : Act Scene String := do
  let s ← get
  let (content, editor) := s.editor.readFile path
  set { s with editor }
  match content with
  | .ok text => return text
  | .error e => throw (.failed s!"cannot read '{path}': {e.message}")

/-- Runs the commands of a file. A failure is also written to the debug document. -/
def source (run : Runner) (p : Parameters) : Act Scene Unit := do
  let path ← positional p 0
  let lines : Act Scene Unit := do run {} (← readFile path)
  match ← lines.attempt with
  | .ok _ => return
  | .error e =>
    onEditor (Editor.writeDebug run s!"error while sourcing '{path}': {e.message}")
    throw e

/-! ## Tables -/

/-- Adds a hook. -/
def hook (p : Parameters) : Act Scene Unit := do
  let scope ← scopeAt p 0
  let event ← positional p 1
  let filter ← positional p 2
  let line ← positional p 3
  addHook scope event ((p.switchValue? "id").getD "") filter (.commands line)

/-- Removes hooks. -/
def rmhooks (p : Parameters) : Act Scene Unit := do
  let scope ← scopeAt p 0
  let _ ← removeHooks scope (← positional p 1)
  return

/-- The event of setting an option in a scope. -/
def optionEvent : Scope → String
  | .global => "GlobalSetOption"
  | .buffer | .namedBuffer _ => "BufSetOption"
  | .window => "WinSetOption"

/-- Sets an option or adds to it, and fires the event of its scope. -/
def setOption (run : Runner) (p : Parameters) : Act Scene Unit := do
  let scope ← scopeAt p 0
  let name ← positional p 1
  let text ← positional p 2
  let inherited := (← get).inheritedOption? scope name
  let value ← updateTables scope fun tables =>
    (if p.hasSwitch "add" then tables.options.addText name text inherited
      else tables.options.setText name text inherited).map
      fun (value, options) => (value, { tables with options })
  runHook run (optionEvent scope) s!"{name}={value.text}"

/-- Declares an option in the global scope. -/
def decl (p : Parameters) : Act Scene Unit := do
  let keyword ← positional p 0
  let name ← positional p 1
  let value ← Act.ofRegistry (OptionValue.declared name keyword (p.positional? 2))
  updateTables .global fun tables =>
    (tables.options.declare name value (p.hasSwitch "hidden")).map
      fun options => ((), { tables with options })

/-- Maps a key of a mode. -/
def mapKey (scope : Scope) (mode : KeymapMode) (key : Key) (keys : List Key) : Act Scene Unit :=
  updateTables scope fun tables =>
    .ok ((), { tables with keymaps := tables.keymaps.map mode key keys })

/-- Maps a key. -/
def map (p : Parameters) : Act Scene Unit := do
  let scope ← scopeAt p 0
  let mode ← Act.ofRegistry (KeymapMode.parse (← positional p 1))
  match ← readKeys (← positional p 2) with
  | [key] => mapKey scope mode key (← readKeys (← positional p 3))
  | _ => throw (.invalidArgument "only a single key can be mapped")

/-- Builds a highlighter and its name. -/
def build (factory : HighlighterFactory) (params : List String) :
    Except CommandError (String × HighlighterNode Highlighter) :=
  match factory, params with
  | .pattern, [text, face] =>
    match Pattern.compile? text with
    | some pattern => .ok ("regex_" ++ text, .leaf (.pattern pattern face))
    | none => .error (.invalidPattern text)
  | .pattern, _ => .error (.invalidArgument "usage: regex <pattern> <face>")
  | .group, [name] => .ok (name, .group [])
  | .group, _ => .error (.invalidArgument "usage: group <name>")
  | .reference, [path] => .ok ("ref_" ++ path, .leaf (.reference path))
  | .reference, _ => .error (.invalidArgument "usage: ref <defined group>")

/-- A highlighter tree with a node added to the group at a path. -/
def addNode (tree : HighlighterGroup Highlighter) (path name : String)
    (node : HighlighterNode Highlighter) :
    Except RegistryError (HighlighterGroup Highlighter) :=
  (tree.updateGroup path fun group =>
    (HighlighterGroup.add group name node).map fun group => ((), group)).map (·.2)

/-- A highlighter tree without a member of the group at a path. -/
def removeNode (tree : HighlighterGroup Highlighter) (path name : String) :
    Except RegistryError (HighlighterGroup Highlighter) :=
  (tree.updateGroup path fun group => HighlighterGroup.remove group name).map (·.2)

/-- Changes the shared highlighter groups. -/
def updateDefined
    (f : HighlighterGroup Highlighter → Except RegistryError (HighlighterGroup Highlighter)) :
    Act Scene Unit := do
  let groups ← Act.ofRegistry (f (← get).editor.definedHighlighters)
  modifyEditor fun e => { e with definedHighlighters := groups }

/-- Changes the highlighters of a scope. -/
def updateHighlighters (scope : Scope)
    (f : HighlighterGroup Highlighter → Except RegistryError (HighlighterGroup Highlighter)) :
    Act Scene Unit :=
  updateTables scope fun tables =>
    (f tables.highlighters).map fun highlighters => ((), { tables with highlighters })

/-- Adds a highlighter. -/
def addhl (p : Parameters) : Act Scene Unit := do
  let group := p.switchValue? "group"
  let defined := p.switchValue? "def-group"
  if group.isSome && defined.isSome then
    throw (.invalidCombination "-group and -def-group cannot be used together")
  let factory ← Act.ofRegistry ((← get).editor.factories.find (← positional p 0))
  let (name, node) ← Act.ofExcept (build factory (p.positionals.drop 1))
  match defined with
  | some path => updateDefined fun tree => addNode tree path name node
  | none =>
    updateHighlighters (← scopeSwitch p) fun tree => addNode tree (group.getD "") name node

/-- Removes a highlighter. -/
def rmhl (p : Parameters) : Act Scene Unit := do
  let scope ← scopeSwitch p
  let name ← positional p 0
  updateHighlighters scope fun tree => removeNode tree ((p.switchValue? "group").getD "") name

/-- Defines a shared highlighter group. -/
def defhl (p : Parameters) : Act Scene Unit := do
  let name ← positional p 0
  updateDefined fun tree => HighlighterGroup.add tree name (.group [])

/-! ## Definitions -/

/-- How the body of the defined command gets its parameters. -/
def passing (p : Parameters) : Except CommandError ParamPassing :=
  match p.hasSwitch "env-params", p.hasSwitch "shell-params" with
  | true, true =>
    .error (.invalidCombination "-env-params and -shell-params cannot be used together")
  | true, false => .ok .variables
  | false, true => .ok .positional
  | false, false => .ok .none

/-- Defines a command. -/
def define (p : Parameters) : Act Scene Unit := do
  let name ← positional p 0
  let line ← positional p 1
  let passing ← Act.ofExcept (passing p)
  let command : Command :=
    { params := if passing = .none then .none else .verbatim
      description := (p.switchValue? "docstring").getD ""
      hidden := p.hasSwitch "hidden"
      completer := (p.switchValue? "shell-completion").map .script
      body := .script line passing }
  let commands := (← get).editor.commands
  let commands ← if p.hasSwitch "allow-override" then pure (commands.put name command)
    else Act.ofRegistry (commands.insert name command)
  modifyEditor fun e => { e with commands }

/-- The environment in which the body of a defined command runs. -/
def bodyEnvironment (passing : ParamPassing) (params : List String) : Environment :=
  match passing with
  | .none => {}
  | .positional => { params }
  | .variables => { vars := params.zipIdx.map fun (param, index) => (s!"param{index}", param) }

/-- Runs a built-in command. -/
def performBuiltin (run : Runner) (env : Environment) (p : Parameters) : Builtin → Act Scene Unit
  | .nop => return
  | .echo => echo p
  | .debug => onEditor (Editor.writeDebug run (joined p))
  | .eval => eval run env p
  | .exec => exec run p
  | .try => tryLine run env p
  | .reg => reg p
  | .nameclient => nameclient p
  | .namebuf => namebuf p
  | .source => source run p
  | .hook => hook p
  | .rmhooks => rmhooks p
  | .set => setOption run p
  | .decl => decl p
  | .map => map p
  | .addhl => addhl p
  | .rmhl => rmhl p
  | .defhl => defhl p
  | .define => define p

/-- Runs the body of a command. -/
def performBody (run : Runner) (env : Environment) (p : Parameters) : CommandBody → Act Scene Unit
  | .builtin b => performBuiltin run env p b
  | .script line passing => run (bodyEnvironment passing p.positionals) line

end ModalEdit.Scene
