import ModalEdit.CommandLine.Token
import ModalEdit.Key.Sequence
import ModalEdit.Parameters
import ModalEdit.RegistryError
import ModalEdit.SelectionList

/-!
# Errors of commands

Why a command, a hook or a key failed. Every such error can be caught by `try`.
-/

namespace ModalEdit

/-- Why a command failed. -/
inductive CommandError where
  /-- An entry of a named table is missing, taken or not of the right kind. -/
  | registry (error : RegistryError)
  /-- Switches that cannot be used together. -/
  | invalidCombination (reason : String)
  /-- A selection list that breaks a rule. -/
  | invalidSelections (error : SelectionError)
  | parse (error : ParseError)
  | wrongArgumentCount (expected : ArgCount) (got : Nat)
  | invalidArgument (reason : String)
  /-- A pattern to highlight that does not compile. -/
  | invalidPattern (pattern : String)
  /-- A reason of the command's own. -/
  | failed (reason : String)
  deriving DecidableEq, Repr

namespace CommandError

/-- The wording shown to users. -/
def message : CommandError → String
  | registry error => error.message
  | invalidCombination reason => reason
  | invalidSelections error => s!"selection invariant violated: {error.message}"
  | parse error => error.message
  | wrongArgumentCount expected got =>
    s!"wrong argument count: expected {expected.text}, got {got}"
  | invalidArgument reason => s!"invalid argument: {reason}"
  | invalidPattern pattern => s!"invalid argument: invalid regex '{pattern}'"
  | failed reason => reason

/-- The error of a command whose parameters do not fit. -/
def ofParamError : ParamError → CommandError
  | .wrongArgumentCount expected got => wrongArgumentCount expected got
  | .invalidCombination reason => invalidCombination reason
  | other => invalidArgument other.message

/-- The error of a command with an unreadable key sequence. -/
def ofKeyError (error : KeyParseError) : CommandError := invalidArgument error.message

end CommandError

end ModalEdit
