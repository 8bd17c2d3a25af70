import ModalEdit.Editor.Scene

/-!
# Running hooks

When an event fires for a context, the matching hooks of the global tables run
first, then those of the document, then those of the window. Which hooks run is
settled before the first of them does. The first hook that fails ends it.
-/

namespace ModalEdit.Scene

/-- The variable that holds the event parameter. -/
def hookVariable : String := "hook_param"

/-- What runs when an event fires. -/
def hooksFor (s : Scene) (event param : String) : List HookBody :=
  s.visibleTables.flatMap fun tables => tables.hooks.matching event param

/-- Runs one hook. -/
def runHookBody (run : Runner) (param : String) : HookBody → Act Scene Unit
  | .commands line => run (({} : Environment).set hookVariable param) line
  | .notice text fails => do
    print s!"{text} {param}"
    if fails then throw (.failed text)

/-- Fires an event. -/
def runHook (run : Runner) (event param : String) : Act Scene Unit := do
  ((← get).hooksFor event param).forM (runHookBody run param)

/-- Adds a hook to the tables of a scope. -/
def addHook (scope : Scope) (event id filter : String) (body : HookBody) : Act Scene Unit :=
  updateTables scope fun tables =>
    (tables.hooks.add event id filter body).map fun hooks => ((), { tables with hooks })

/-- Removes the hooks of a scope whose id matches a pattern, and counts them. -/
def removeHooks (scope : Scope) (idPattern : String) : Act Scene Nat :=
  updateTables scope fun tables =>
    (tables.hooks.remove idPattern).map fun (count, hooks) => (count, { tables with hooks })

end ModalEdit.Scene
