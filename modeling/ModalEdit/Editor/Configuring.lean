import ModalEdit.Config
import ModalEdit.Editor.Execution

/-!
# Applying a config

The entries of a config take effect one by one: options, hooks, key mappings,
and in the end the command lines. An entry that fails changes nothing and keeps
no other one back.
-/

namespace ModalEdit

/-- Performs acts one by one and gives the errors of those that fail. -/
def Act.failures {σ : Type} : List (Act σ Unit) → Act σ (List CommandError)
  | [] => return []
  | act :: rest => do
    match ← act.attempt with
    | .ok _ => failures rest
    | .error error => return error :: (← failures rest)

namespace Scene

/-- Sets a global option as a config says. -/
def applyOption (name : String) (value : Toml.Value) : Act Scene Unit :=
  match Config.optionText name value with
  | .error error => throw (.invalidArgument error.message)
  | .ok text => updateTables .global fun tables =>
      (tables.options.setText name text none).map fun (_, options) => ((), { tables with options })

/-- Adds a hook of a config. -/
def applyHook (entry : HookEntry) : Act Scene Unit := do
  let scope ← Act.ofRegistry (Scope.parse entry.scope)
  addHook scope entry.event entry.id entry.filter (.commands entry.commands)

/-- Adds a key mapping of a config. -/
def applyKey (entry : KeyEntry) : Act Scene Unit := do
  let scope ← Act.ofRegistry (Scope.parse entry.scope)
  let mode ← Act.ofRegistry (KeymapMode.parse entry.mode)
  match ← readKeys entry.key with
  | [key] => mapKey scope mode key (← readKeys entry.mapping)
  | _ => throw (.invalidArgument s!"'{entry.key}' is not a single key")

/-- What the entries of a config do, in order. -/
def entryActs (config : Config) : List (Act Scene Unit) :=
  config.options.map (fun (name, value) => applyOption name value) ++
    config.hooks.map applyHook ++ config.keys.map applyKey ++ config.init.map (execute {})

/-- Applies a config and gives the errors of the entries that fail. -/
def applyConfig (config : Config) : Act Scene (List CommandError) :=
  Act.failures (entryActs config)

end Scene

end ModalEdit
