import ModalEdit.Editor.Builtins
import ModalEdit.Editor.Values

/-!
# Running command lines

A command line is read as a whole; then its commands run in order, each after
its tokens were expanded, up to the first that fails. Commands, hooks and keys
can run further command lines, as deep as the host lets them nest.
-/

namespace ModalEdit

namespace Scene

/-- Runs a command with arguments that are expanded already. -/
def runCommand (run : Runner) (env : Environment) (name : String) (args : List String) :
    Act Scene Unit := do
  let command ← Act.ofRegistry ((← get).editor.commands.find name)
  match Parameters.parse command.params args with
  | .ok p => performBody run env p command.body
  | .error e => throw (.ofParamError e)

/-- Expands and runs one command of a line. -/
def runInvocation (run : Runner) (env : Environment) (i : Invocation) : Act Scene Unit := do
  let name ← expandToken env i.name
  let args ← i.args.mapM (expandToken env)
  runCommand run env name args

/-- Runs a command line; the lines that its commands run go through `run`. -/
def runLine (run : Runner) : Runner := fun env line =>
  match CommandLine.parseInvocations line with
  | .ok invocations => invocations.forM (runInvocation run env)
  | .error e => throw (.parse e)

/-- Runs a command line in which lines nest at most that deep. -/
def executeWithin : Nat → Runner
  | 0 => fun _ _ => throw (.failed "commands nest too deeply")
  | depth + 1 => runLine (executeWithin depth)

/-- Runs a command line, as deep as the host lets lines nest. -/
def execute : Runner := fun env line => do
  executeWithin (← get).editor.host.lineDepth env line

end Scene

namespace Editor

/-- Runs an act in the context of a client. -/
def inClient {α : Type} (name : String) (act : Act Scene α) : Act Editor α := do
  let e ← get
  let (ctx, clients) ← Act.ofExcept (e.clients.checkout name)
  let (result, s) := act.perform ⟨{ e with clients }, ctx⟩
  set (s.editor.checkin name s.context)
  Act.ofExcept result

/-- Runs a command line in the context of a client. -/
def executeInClient (name line : String) : Act Editor Unit := inClient name (Scene.execute {} line)

end Editor

end ModalEdit
