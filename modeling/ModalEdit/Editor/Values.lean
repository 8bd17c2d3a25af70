import ModalEdit.CommandLine.Invocation
import ModalEdit.Editor.Scene
import ModalEdit.Option.ListText

/-!
# Values of expansions

What the expansions of a command line stand for: variables, values of the
context, options, registers and the output of shell scripts.
-/

namespace ModalEdit.Scene

/-- A value of the context. -/
def contextValue? (s : Scene) (name : String) : Option String :=
  let main := s.selections.main
  match name with
  | "bufname" => some s.document.name
  | "timestamp" => some (toString s.document.timestamp)
  | "client" => some s.context.name
  | "selection" => some (s.document.content main.start main.stop)
  | "selections" => some (ListText.join s.selectedTexts)
  | "cursor_line" => some (toString (main.cursor.line + 1))
  | "cursor_column" => some (toString (main.cursor.column + 1))
  | "selection_count" => some (toString s.selections.length)
  | _ => none

/-- A variable, or else a value of the context. -/
def value? (s : Scene) (env : Environment) (name : String) : Option String :=
  (env.get? name).or (s.contextValue? name)

/-- The values of the context that every script can read. -/
def exportedValues : List String := ["bufname", "client", "timestamp", "selection"]

/-- The call that runs a script: the variables come first, sorted, then those exported values that
no variable hides. -/
def shellCall (s : Scene) (script : String) (env : Environment) : ShellCall where
  script := script
  params := env.params
  vars := env.sortedVars ++ exportedValues.filterMap fun name =>
    if (env.get? name).isSome then none else (s.contextValue? name).map (name, ·)

/-- The output of a script. -/
def shellOutput (s : Scene) (call : ShellCall) : Except CommandError String :=
  match s.editor.host.shell with
  | none => .error (.failed "no shell configured")
  | some shell => shell call

/-- Runs a script. -/
def runShell (script : String) (env : Environment) : Act Scene String := do
  let s ← get
  let call := s.shellCall script env
  if s.editor.host.shell.isSome then
    modifyEditor fun e => { e with shellCalls := e.shellCalls ++ [call] }
  Act.ofExcept (s.shellOutput call)

/-- A text without the line ends at its end. -/
def trimLineEnds (text : String) : String :=
  String.ofList (text.toList.reverse.dropWhile (· = '\n')).reverse

/-- The text that a token stands for. -/
def expandToken (env : Environment) (token : Token) : Act Scene String := do
  let s ← get
  let content := token.content
  match token.kind with
  | .raw | .separator => return content
  | .expand .value =>
    match s.value? env content with
    | some value => return value
    | none => throw (.registry (.notFound "value" content))
  | .expand .arg => return env.arg content
  | .expand .option =>
    match s.option? content with
    | some value => return value.text
    | none => throw (.registry (.notFound "option" content))
  | .expand .register => return s.registerText (← Act.ofExcept (Registers.ofName content))
  | .expand .shell => return trimLineEnds (← runShell content env)

end ModalEdit.Scene
