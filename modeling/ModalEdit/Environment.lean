import ModalEdit.Text.Number

/-!
# Environments

The variables and parameters that a command line can refer to while it runs.
-/

namespace ModalEdit

/-- Variables and parameters of a command line. -/
structure Environment where
  vars : List (String × String) := []
  params : List String := []
  deriving DecidableEq, Repr, Inhabited

namespace Environment

/-- Sets a variable. -/
def set (env : Environment) (name value : String) : Environment :=
  { env with vars := env.vars.filter (·.1 ≠ name) ++ [(name, value)] }

/-- The value of a variable. -/
def get? (env : Environment) (name : String) : Option String := env.vars.lookup name

/-- The variables sorted by name. -/
def sortedVars (env : Environment) : List (String × String) :=
  env.vars.mergeSort fun a b => a.1 ≤ b.1

/-- What `%arg` stands for: a parameter by number, counted from one, or all of them for `@`.
There is nothing where there is no parameter. -/
def arg (env : Environment) (content : String) : String :=
  if content = "@" then " ".intercalate env.params
  else match Text.readNat? Text.indexLimit content.toList with
    | some (index + 1) => env.params.getD index ""
    | _ => ""

end Environment

end ModalEdit
