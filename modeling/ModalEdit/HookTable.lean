import ModalEdit.Pattern
import ModalEdit.RegistryError

/-!
# Hook tables

A hook runs when an event fires whose parameter is matched, as a whole, by the
filter of the hook. The hooks of one scope are kept by event, in the order in
which they were added. A hook with an id can be removed by a pattern for its id;
one without an id stays.

What filters mean is left open: a table works with any kind of them. Those of an
editor are patterns for a whole text, of some engine for regular expressions.
-/

namespace ModalEdit

/-- A kind of filters: which texts are filters, and which texts a filter accepts. -/
class FilterKind (P : Type) where
  compile? : String → Option P
  isMatch : P → String → Bool

instance {R : Type} [Regex.Engine R] : FilterKind R := ⟨Regex.compileFull?, Regex.Engine.isMatch⟩

/-- A hook of some event. -/
structure Hook (F : Type) (P : Type := Pattern) where
  /-- Empty for hooks that cannot be removed. -/
  id : String
  filter : P
  callback : F
  deriving Repr

/-- Whether a hook runs for an event parameter. -/
def Hook.accepts {F P : Type} [FilterKind P] (hook : Hook F P) (param : String) : Bool :=
  FilterKind.isMatch hook.filter param

/-- The hooks of one scope. -/
structure HookTable (F : Type) (P : Type := Pattern) where
  /-- The hooks of each event that has any. -/
  events : List (String × List (Hook F P)) := []
  deriving Repr

namespace HookTable

variable {F P : Type} [FilterKind P]

/-- Reads a filter. -/
def fullPattern (text : String) : Except RegistryError P :=
  match FilterKind.compile? text with
  | some pattern => .ok pattern
  | none => .error (.invalidPattern text)

/-- The hooks of an event, in the order in which they were added. -/
def hooks (table : HookTable F P) (event : String) : List (Hook F P) :=
  (table.events.lookup event).getD []

/-- Adds a hook at the end of its event. -/
def addHook (table : HookTable F P) (event : String) (hook : Hook F P) : HookTable F P :=
  if (table.events.lookup event).isSome then
    ⟨table.events.map fun entry =>
      if entry.1 = event then (entry.1, entry.2 ++ [hook]) else entry⟩
  else ⟨table.events ++ [(event, [hook])]⟩

/-- Adds a hook; its filter must be one. -/
def add (table : HookTable F P) (event id filter : String) (callback : F) :
    Except RegistryError (HookTable F P) :=
  (fullPattern filter).map fun pattern => table.addHook event ⟨id, pattern, callback⟩

/-- Whether a removal by pattern leaves a hook alone. -/
def survives (pattern : P) (hook : Hook F P) : Bool :=
  hook.id.isEmpty || !FilterKind.isMatch pattern hook.id

/-- Number of hooks of all events. -/
def size (table : HookTable F P) : Nat := (table.events.flatMap (·.2)).length

/-- Removes the hooks whose id is matched as a whole. Events without hooks are dropped. -/
def removeMatching (table : HookTable F P) (pattern : P) : HookTable F P :=
  ⟨(table.events.map fun entry => (entry.1, entry.2.filter (survives pattern))).filter
    fun entry => !entry.2.isEmpty⟩

/-- Removes the hooks whose id matches a pattern, and counts them. -/
def remove (table : HookTable F P) (idPattern : String) :
    Except RegistryError (Nat × HookTable F P) :=
  (fullPattern idPattern).map fun pattern =>
    let rest := table.removeMatching pattern
    (table.size - rest.size, rest)

/-- Whether there are no hooks. -/
def isEmpty (table : HookTable F P) : Bool := table.events.isEmpty

/-- The ids in use, sorted. -/
def ids (table : HookTable F P) : List String :=
  (((table.events.flatMap fun entry => entry.2.map (·.id)).filter (!·.isEmpty)).eraseDups).mergeSort
    fun a b => a ≤ b

/-- What the hooks of an event that accept a parameter run, in the order they were added. -/
def matching (table : HookTable F P) (event param : String) : List F :=
  ((table.hooks event).filter (·.accepts param)).map (·.callback)

end HookTable

end ModalEdit
