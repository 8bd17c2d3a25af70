import ModalEdit.Highlighter
import ModalEdit.HookTable
import ModalEdit.Keymap
import ModalEdit.Option.Store

/-!
# Tables of a scope

Each scope, that is the whole editor, a document or a window, has options, hooks,
key mappings and highlighters of its own.
-/

namespace ModalEdit

/-- What a hook does. -/
inductive HookBody where
  /-- Runs command lines, the event parameter being their variable `hook_param`. -/
  | commands (line : String)
  /-- Shows a text with the event parameter behind it and then, if told so, fails with the text. -/
  | notice (text : String) (fails : Bool)
  deriving DecidableEq, Repr

/-- The tables of one scope. -/
structure ScopeTables where
  options : OptionStore := {}
  hooks : HookTable HookBody := {}
  keymaps : KeymapTable := {}
  highlighters : HighlighterGroup Highlighter := []

instance : Inhabited ScopeTables := ⟨{}⟩

end ModalEdit
