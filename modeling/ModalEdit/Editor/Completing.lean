import ModalEdit.Editor.Values

/-!
# Completing a command line

The command under the cursor is completed: its name, the name of a switch, the
value of a switch, or a parameter. The range of the answer is that of the word
before the cursor.
-/

namespace ModalEdit

/-- The tokens of the last command of a line. -/
def CommandLine.lastCommand (tokens : List Token) : List Token :=
  (tokens.reverse.takeWhile fun t => !t.isSeparator).reverse

namespace Completions

/-- The words of the command before the cursor. -/
structure Words where
  /-- The words before the one being completed, the command name first. -/
  before : List Token
  /-- The word being completed; empty at the cursor where a new one begins. -/
  current : Token
  deriving DecidableEq, Repr

/-- The empty word at a byte of a line. -/
def emptyWord (cursor : Nat) : Token := ⟨.raw, "", cursor, cursor⟩

/-- Whether a text ends in white space. -/
def endsBlank (text : List Char) : Bool := (text.getLast?.map Text.isBlank).getD false

/-- The words of the text before the cursor. After white space a new word begins. -/
def Words.ofText (typed : List Char) (cursor : Nat) : Words :=
  let words := CommandLine.lastCommand (CommandLine.tokenizePartial (String.ofList typed))
  match words.getLast? with
  | none => ⟨[], emptyWord cursor⟩
  | some last =>
    if endsBlank typed then ⟨words, emptyWord cursor⟩ else ⟨words.dropLast, last⟩

/-- The words of a line before the cursor. -/
def wordsAt (line : String) (cursor : Nat) : Words :=
  Words.ofText (typed line cursor) (floor line cursor)

/-- What is known about the arguments before the one being completed. -/
structure ArgumentState where
  positionals : List String := []
  /-- The switch whose value comes next. -/
  valued : Option String := none
  /-- No switches can follow. -/
  switchesDone : Bool := false
  deriving DecidableEq, Repr

/-- The name that an argument has as a switch. -/
def switchText? (word : String) : Option String :=
  match word.toList with
  | '-' :: name => some (String.ofList name)
  | _ => none

/-- Takes one more argument into account. -/
def ArgumentState.step (params : ParameterDesc) (state : ArgumentState) (word : String) :
    ArgumentState :=
  if state.valued.isSome then { state with valued := none }
  else if !state.switchesDone && word = "--" then { state with switchesDone := true }
  else match if state.switchesDone then none else switchText? word with
    | some name =>
      { state with valued := ((params.switch? name).filter (·.takesArg)).map fun _ => name }
    | none => { state with positionals := state.positionals ++ [word] }

end Completions

namespace Scene

/-- The lines of the output of a script. -/
def outputLines (output : String) : List String :=
  let parts := Text.splitAll '\n' output.toList
  let ended := parts.dropLast.map fun line =>
    if line.getLast? = some '\r' then line.dropLast else line
  (match parts.getLast? with
    | some [] | none => ended
    | some last => ended ++ [last]).map String.ofList

/-- Completes a name of a kind. -/
def completeSubject (s : Scene) (query : String) (cursor : Nat) : CompletionSubject → Completions
  | .scope => Scope.complete query cursor
  | .option => s.editor.scopes.options.complete query cursor
  | .optionType => .ofNames (OptionType.all.map (·.name)) query cursor
  | .keymapMode => .ofNames (KeymapMode.all.map (·.name)) query cursor
  | .factory => s.editor.factories.complete query cursor
  | .highlighter =>
    match s.context.window with
    | some w => Entries.complete w.scopes.highlighters query cursor
    | none => .emptyAt cursor
  | .highlighterGroup =>
    match s.context.window with
    | some w => w.scopes.highlighters.complete query cursor
    | none => .emptyAt cursor
  | .definedGroup => s.editor.definedHighlighters.complete query cursor

/-- The variable that tells a completion script which parameter is completed. -/
def tokenVariable : String := "token_to_complete"

/-- The variable that tells a completion script where the cursor is in the parameter. -/
def positionVariable : String := "pos_in_token"

/-- The call of a completion script. -/
def completionCall (s : Scene) (script : String) (params : List String) (index cursor : Nat) :
    ShellCall :=
  s.shellCall script ((({ params } : Environment).set tokenVariable (toString index)).set
    positionVariable (toString cursor))

/-- Completes a parameter with a completer. Where scripts are too slow to be run they offer
nothing. The second component is the script that was run. -/
def completeWith (s : Scene) (fast : Bool) (params : List String) (index cursor : Nat)
    (query : String) : Completer → Completions × Option ShellCall
  | .subjects subjects =>
    match subjects[index]? with
    | some subject => (s.completeSubject query cursor subject, none)
    | none => (.emptyAt cursor, none)
  | .script script =>
    if fast then (.emptyAt cursor, none)
    else
      let call := s.completionCall script params index cursor
      let made := s.editor.host.shell.map fun _ => call
      match s.shellOutput call with
      | .ok output => (⟨outputLines output, 0, cursor⟩, made)
      | .error _ => (.emptyAt cursor, made)

/-- Completes the value of a switch. -/
def completeSwitchValue (s : Scene) (command : Command) (name query : String)
    (cursor : Nat) : Completions :=
  match command.switchSubjects.lookup name with
  | some subject => s.completeSubject query cursor subject
  | none => .emptyAt cursor

/-- Completes the names of the commands that are not hidden. -/
def completeCommand (s : Scene) (query : String) (cursor : Nat) : Completions :=
  s.editor.commands.completeIf (!·.hidden) query cursor

/-- Completes an argument of a command; `cursor` counts from the start of the argument. -/
def completeArgument (s : Scene) (fast : Bool) (command : Command) (args : List String)
    (query : String) (cursor : Nat) : Option (Completions × Option ShellCall) :=
  let state := args.foldl (Completions.ArgumentState.step command.params) {}
  match state.valued with
  | some name =>
    if command.switchSubjects.isEmpty then none
    else some (s.completeSwitchValue command name query cursor, none)
  | none =>
    if !state.switchesDone && (Completions.switchText? query).isSome then
      some (.ofNames command.params.switchNames query cursor, none)
    else command.completer.map
      (s.completeWith fast (state.positionals ++ [query]) state.positionals.length cursor query)

/-- Completes the last of the words before the cursor, and tells which script was run for that. -/
def completeWords (s : Scene) (fast : Bool) (cursor : Nat) (words : Completions.Words) :
    Completions × Option ShellCall :=
  let current := words.current
  let inWord := min (cursor - current.start) (Text.byteLength current.content.toList)
  match words.before with
  | [] => ((s.completeCommand current.content inWord).shift current.start, none)
  | name :: args =>
    if current.kind ≠ .raw then (.emptyAt cursor, none)
    else
      let answer := (s.editor.commands.get? name.content).bind fun command =>
        s.completeArgument fast command (args.map (·.content)) current.content inWord
      match answer with
      | some (completions, call) => (completions.shift current.start, call)
      | none => (.emptyAt cursor, none)

/-- Completes a command line. -/
def complete (s : Scene) (fast : Bool) (line : String) (cursor : Nat) :
    Completions × Option ShellCall :=
  s.completeWords fast (Completions.floor line cursor) (Completions.wordsAt line cursor)

end Scene

end ModalEdit
