import ModalEdit.NameMap
import ModalEdit.Parameters

/-!
# Commands

A command has a description of its parameters and a body, which is built in or
is itself a command line.
-/

namespace ModalEdit

/-- The built-in commands. -/
inductive Builtin where
  | nop
  | echo
  | debug
  | eval
  | exec
  | try
  | reg
  | nameclient
  | namebuf
  | source
  | hook
  | rmhooks
  | set
  | decl
  | map
  | addhl
  | rmhl
  | defhl
  | define
  deriving DecidableEq, Repr

/-- How the body of a defined command gets its parameters. -/
inductive ParamPassing where
  /-- It takes none. -/
  | none
  /-- As the variables `param0`, `param1` and so on. -/
  | variables
  /-- As the parameters that `%arg` reads. -/
  | positional
  deriving DecidableEq, Repr

/-- What a command does. -/
inductive CommandBody where
  | builtin (b : Builtin)
  | script (line : String) (passing : ParamPassing)
  deriving DecidableEq, Repr

/-- What names a parameter is completed with. -/
inductive CompletionSubject where
  | scope
  /-- An option of the global scope. -/
  | option
  | optionType
  | keymapMode
  | factory
  /-- A highlighter of the window. -/
  | highlighter
  /-- A highlighter group of the window. -/
  | highlighterGroup
  /-- A shared highlighter group. -/
  | definedGroup
  deriving DecidableEq, Repr

/-- What completes the parameters of a command. -/
inductive Completer where
  /-- The first parameters have the given subjects. -/
  | subjects (subjects : List CompletionSubject)
  /-- A shell script that prints one candidate a line. -/
  | script (script : String)
  deriving DecidableEq, Repr

/-- A command. -/
structure Command where
  params : ParameterDesc
  description : String := ""
  /-- Left out of completion. -/
  hidden : Bool := false
  completer : Option Completer := none
  /-- The subjects of the values of switches. -/
  switchSubjects : List (String × CompletionSubject) := []
  body : CommandBody
  deriving DecidableEq, Repr

namespace Command

/-- A built-in command. -/
def ofBuiltin (b : Builtin) (params : ParameterDesc) (description : String) : Command :=
  { params, description, body := .builtin b }

/-- The command with its first parameters completed. -/
def completing (command : Command) (subjects : List CompletionSubject) : Command :=
  { command with completer := some (.subjects subjects) }

/-- The command with values of its switches completed. -/
def completingSwitches (command : Command) (subjects : List (String × CompletionSubject)) :
    Command :=
  { command with switchSubjects := subjects }

end Command

end ModalEdit
