import ModalEdit.Completion
import ModalEdit.RegistryError

/-!
# Scopes

Options, hooks, key mappings and highlighters live in a scope: everywhere, in one
document, or in one window. Commands name scopes by keyword; any non-empty part
from the start of a keyword will do.
-/

namespace ModalEdit

/-- Where a scoped table lives. -/
inductive Scope where
  | global
  /-- The document of the current context. -/
  | buffer
  /-- The window of the current context. -/
  | window
  /-- The document with that name. -/
  | namedBuffer (name : String)
  deriving DecidableEq, Repr

namespace Scope

/-- The keywords, outermost scope first. -/
def keywords : List (String × Scope) :=
  [("global", .global), ("buffer", .buffer), ("window", .window)]

/-- The text that introduces the name of a document. -/
def namedLead : List Char := "buffer=".toList

/-- Reads a scope as written in a command. -/
def parse (text : String) : Except RegistryError Scope :=
  if namedLead.isPrefixOf text.toList then
    .ok (.namedBuffer (String.ofList (text.toList.drop namedLead.length)))
  else
    match keywords.find? fun entry => !text.isEmpty && text.toList.isPrefixOf entry.1.toList with
    | some (_, scope) => .ok scope
    | none => .error (.unknownScope text)

/-- Completes a keyword. -/
def complete (query : String) (cursor : Nat) : Completions :=
  .ofNames (keywords.map (·.1)) query cursor

/-- The written form of a scope. -/
def text : Scope → String
  | .global => "global"
  | .buffer => "buffer"
  | .window => "window"
  | .namedBuffer name => "buffer=" ++ name

end Scope

end ModalEdit
