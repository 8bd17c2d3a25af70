import ModalEdit.CommandError
import ModalEdit.Context
import ModalEdit.NameMap

/-!
# Clients

Named contexts that own a window. While something runs in the context of a
client, the context is checked out and its slot is empty, so that nobody else
can run in it at the same time.
-/

namespace ModalEdit

/-- The clients in order; an empty slot is that of a context that is checked out. -/
structure Clients where
  slots : NameMap (Option Context) := { kind := "client" }
  /-- The number to try first for the next generated name. It is kept unbounded: it starts at zero
and a name that is tried raises it by one, so no run of the program comes near `Text.indexLimit`. -/
  nextNumber : Nat := 0

namespace Clients

/-- A generated name. -/
def numberedName (n : Nat) : String := s!"client{n}"

/-- The first number from `nextNumber` on whose name is free. -/
def freeNumber (c : Clients) : Nat :=
  ((List.range' c.nextNumber (c.slots.size + 1)).find? fun n =>
    !c.slots.contains (numberedName n)).getD c.nextNumber

/-- A name that is not in use and was not generated before. -/
def generateName (c : Clients) : String × Clients :=
  (numberedName c.freeNumber, { c with nextNumber := c.freeNumber + 1 })

/-- Adds a client, named like its context. -/
def add (c : Clients) (ctx : Context) : Except CommandError Clients :=
  match c.slots.insert ctx.name (some ctx) with
  | .ok slots => .ok { c with slots }
  | .error e => .error (.registry e)

/-- The context of a client that is not checked out. -/
def context? (c : Clients) (name : String) : Option Context := (c.slots.get? name).join

/-- Whether there is a client with that name whose context is checked out. -/
def isOut (c : Clients) (name : String) : Bool := (c.slots.get? name).any (·.isNone)

/-- Removes a client. -/
def remove (c : Clients) (name : String) : Clients := { c with slots := c.slots.erase name }

/-- Takes the context of a client out of its slot. -/
def checkout (c : Clients) (name : String) : Except CommandError (Context × Clients) :=
  match c.slots.get? name with
  | none => .error (.registry (c.slots.notFound name))
  | some none => .error (.failed s!"client '{name}' is busy")
  | some (some ctx) => .ok (ctx, { c with slots := c.slots.put name none })

/-- The slot that a context checked out as `name` goes back to: that of its own name, if there is
one, for it may have been renamed meanwhile. -/
def slotFor (c : Clients) (name : String) (ctx : Context) : String :=
  if c.slots.contains ctx.name then ctx.name else name

/-- Puts a context back into its slot and gives the context that is thereby dropped: the one that
was in the slot, or the given one if its client is gone. -/
def checkin (c : Clients) (name : String) (ctx : Context) : Option Context × Clients :=
  let slot := c.slotFor name ctx
  match c.slots.get? slot with
  | some old => (old, { c with slots := c.slots.put slot (some ctx) })
  | none => (some ctx, c)

/-- Renames a client and its context. -/
def rename (c : Clients) (source target : String) : Except CommandError Clients :=
  if source = target then .ok c
  else match c.slots.rename source target with
    | .ok slots =>
      .ok { c with slots := slots.modify target (·.map fun ctx => { ctx with name := target }) }
    | .error e => .error (.registry e)

end Clients

end ModalEdit
